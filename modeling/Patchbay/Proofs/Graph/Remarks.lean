import Patchbay.Proofs.Graph.Disconnect
import Patchbay.Proofs.Graph.Flattening
import Patchbay.Proofs.Graph.LastPass

/-!
# What notes see of the links

The notes listed for a node of a type are those that the type gives on a view of the graph that
holds the node, for the outermost graph with remarks on its idle sources behind them. Resolution
shows a graph inside what its proxies are linked to, but this view shows nothing of it. So a pad is
connected there when its flat form is an end of a flat link, unless the link comes in from further
out, through proxies (`GraphState.LinkedAround`, `GraphState.Remarks`).

Where nothing comes in from further out, notes and declarations of a node are made of the same view
(`GraphState.Compares`).
-/

namespace Patchbay

/-- A flat link ends at an address. -/
def FlatGraph.Ends (f : FlatGraph) (r : PadRef) : Prop := ∃ k ∈ f.links, k.source = r ∨ k.sink = r

namespace GraphState

/-- Further out than the graph at a route, a link ends at a proxy of a pad of this graph. -/
def LinkedAround (s : GraphState) (route : List String) (r : PadRef) : Prop :=
  ∃ outer rest t q, route = outer ++ rest ∧ rest ≠ [] ∧ s.HoldsAt outer t ∧ ¬ t.Unlinked q ∧
    t.Denotes q rest r

/-- The notes of nodes of types: what a node sees as connected is an end of a flat link that does
not come in from further out, and what is listed for it are the notes of its type on what it
sees. -/
structure Remarks (s : GraphState) : Prop where
  connected : ∀ route t, s.HoldsAt route t → ∀ e ∈ t.nodes, ∀ type, e.body = .plugin type →
    ∀ p ∈ e.pads, ((t.view [] e).isConnected p.id = true ↔
      s.flatten.Ends (flatRef route ⟨e.id, p.id⟩) ∧ ¬ s.LinkedAround route ⟨e.id, p.id⟩)
  around : ∀ route t, s.HoldsAt route t → ∀ e ∈ t.nodes, ∀ type, e.body = .plugin type →
    ∀ p ∈ e.pads,
    s.LinkedAround route ⟨e.id, p.id⟩ → route ≠ [] ∧ s.flatten.Ends (flatRef route ⟨e.id, p.id⟩)
  listed : ∀ route t, s.HoldsAt route t → ∀ e ∈ t.nodes, ∀ type, e.body = .plugin type →
    s.notes.filter (·.node == routeText route ++ e.id) =
      (type.notes (t.view [] e)).map (⟨routeText route ++ e.id, ·⟩) ++
        if route = [] then s.idleSources "" e.id e.pads else []

/-- A compare to which nothing comes in from further out reports its operands just when its menu is
empty. -/
def Compares (s : GraphState) : Prop :=
  ∀ route t, s.HoldsAt route t → ∀ e ∈ t.nodes, e.body = .plugin Compare.nodeType →
    (∀ p ∈ e.pads, ¬ s.LinkedAround route ⟨e.id, p.id⟩) →
    ∃ p ∈ e.pads, p.id = Compare.operator ∧ ∃ menu, p.declared = some [.enumeration menu] ∧
      (Compare.nodeType.notes (t.view [] e) ≠ [] ↔ menu = [])

variable {s t inner : GraphState} {e d : NodeEntry} {p : PadState} {r q x : PadRef}
  {route rest outer : List String}
  {type : NodeType} {external : External} {id : Option String} {n : GraphNote} {path : String}
  {outermost : Bool}

/-! ### Connected pads -/

theorem linked_iff : ¬ s.Unlinked r ↔ ∃ l ∈ s.links, l.source = r ∨ l.sink = r := by
  simp only [Unlinked, not_forall, exists_prop, not_and_or, not_not]

/-- A pad is connected if it has a link, or if it is shown something from outside. -/
theorem connected_peerView (hs : s.Joined) (hp : s.pad? r = some p) :
    (s.peerView external r p).connected = true ↔ ¬ s.Unlinked r ∨ (external.get? r).isSome =
    true := by
  by_cases hun : s.Unlinked r
  · rw [peerView_unlinked hun, externalView]
    cases external.get? r <;> simp [hun]
  · refine iff_of_true ?_ (.inl hun)
    obtain ⟨l, hl, rfl | rfl⟩ := linked_iff.mp hun
    · obtain ⟨a, b, ha, hb, hsource, -⟩ := hs.ends hl
      obtain rfl : a = p := Option.some.inj (ha.symm.trans hp)
      have hmem : b ∈ (s.downstream l.source).filterMap s.pad? :=
        List.mem_filterMap.mpr ⟨l.sink, mem_downstream.mpr hl, hb⟩
      rw [peerView, if_pos hsource]
      split
      · rename_i hnil
        rw [hnil] at hmem
        cases hmem
      · rfl
    · obtain ⟨a, b, ha, hb, -, hsink⟩ := hs.ends hl
      obtain rfl : b = p := Option.some.inj (hb.symm.trans hp)
      rw [peerView, if_neg (by simp [hsink]), hs.feeder_sink hl, Option.bind_some, ha]

theorem isConnected_view (hs : s.Exact) (he : e ∈ s.nodes) (hp : p ∈ e.pads) :
    (s.view [] e).isConnected p.id = true ↔ ¬ s.Unlinked ⟨e.id, p.id⟩ := by
  have hpeer : (s.view [] e).peer p.id = s.peerView [] ⟨e.id, p.id⟩ p := by
    rw [NodeView.peer, view, peerViews,
      lookupKey_map_of_mem (hs.wellFormed.distinctPads e he) hp fun p => s.peerView []
      ⟨e.id, p.id⟩ p]
    rfl
  rw [NodeView.isConnected, hpeer,
    connected_peerView (hs.wellFormed.joined hs.ordered) (hs.wellFormed.pad?_eq he hp)]
  simp [External.get?]

/-! ### Ends of flat links -/

section

variable (hs : s.Everywhere Exact)

include hs

/-- The ends of flat links are what linked pads denote. -/
theorem ends_flatten_iff : s.flatten.Ends r ↔ ∃ outer t, s.HoldsAt outer t ∧
    ∃ q, ¬ t.Unlinked q ∧ ∃ rest x, t.Denotes q rest x ∧ r = flatRef (outer ++ rest) x := by
  have hlinks : ∀ k, k ∈ s.flatten.links ↔ _ := fun _ => mem_flattenAt_links [] hs
  constructor
  · rintro ⟨k, hk, hend⟩
    obtain ⟨outer, t, ht, l, hl, a, x, b, y, hsource, hsink, rfl⟩ := (hlinks k).mp hk
    rcases hend with rfl | rfl
    · exact ⟨outer, t, ht, l.source, linked_iff.mpr ⟨l, hl, .inl rfl⟩, a, x, hsource, rfl⟩
    · exact ⟨outer, t, ht, l.sink, linked_iff.mpr ⟨l, hl, .inr rfl⟩, b, y, hsink, rfl⟩
  · rintro ⟨outer, t, ht, q, hq, rest, x, hx, rfl⟩
    obtain ⟨l, hl, hend⟩ := linked_iff.mp hq
    have hin := hs.within ht.encloses
    obtain ⟨k, hk⟩ := exists_joins hin hl outer
    refine ⟨k, (hlinks k).mpr ⟨outer, t, ht, l, hl, hk⟩, ?_⟩
    obtain ⟨a, y, b, z, hsource, hsink, rfl⟩ := hk
    -- what a pad denotes is told by where it is led to
    have hsame : ∀ {rest' x'}, t.Denotes q rest' x' → flatRef (outer ++ rest') x' = flatRef
        (outer ++ rest) x :=
      fun h => Option.some.inj
        ((flatAddress_of_denotes hin h outer).symm.trans (flatAddress_of_denotes hin hx outer))
    rcases hend with rfl | rfl
    · exact .inl (hsame hsource)
    · exact .inr (hsame hsink)

variable (ht : s.HoldsAt route t)

include ht

/-- What is linked further out has no link in its own graph. -/
theorem LinkedAround.unlinked (h : s.LinkedAround route r) : t.Unlinked r := by
  obtain ⟨outer, rest, u, q, rfl, hne, hu, -, hx⟩ := h
  obtain ⟨u', hu', hrest⟩ := ht.split
  obtain rfl := hu'.det hs hu
  rw [← List.append_nil rest] at hx
  obtain ⟨y, hy, hyx⟩ := hx.unlinked (hs.within hu.encloses) hrest hne
  obtain rfl := (denotes_nil_iff.mp hyx).1
  exact hy

variable (he : e ∈ t.nodes) (hb : e.body = .plugin type) (hp : p ∈ e.pads)

include he hb hp

/-- A flat link ends at a pad of a node of a type just when a link of the graph that holds the node
does, or one further out. -/
theorem ends_flatten_flatRef : s.flatten.Ends (flatRef route ⟨e.id, p.id⟩) ↔
    ¬ t.Unlinked ⟨e.id, p.id⟩ ∨ s.LinkedAround route ⟨e.id, p.id⟩ := by
  have hself : t.Denotes ⟨e.id, p.id⟩ [] ⟨e.id, p.id⟩ := .plugin he hb hp
  rw [ends_flatten_iff hs]
  constructor
  · rintro ⟨outer, u, hu, q, hq, rest, x, hx, heq⟩
    rw [← List.append_nil route] at heq
    obtain ⟨hroute, rfl⟩ := eq_of_flatRef hs ht hu hself hx heq
    rw [List.append_nil] at hroute
    cases rest with
    | nil =>
      rw [List.append_nil] at hroute
      obtain rfl := hu.det hs (hroute ▸ ht)
      obtain rfl := (denotes_nil_iff.mp hx).1
      exact .inl hq
    | cons y rest => exact .inr ⟨outer, y :: rest, u, q, hroute, by simp, hu, hq, hx⟩
  · rintro (hlinked | ⟨outer, rest, u, q, rfl, -, hu, hq, hx⟩)
    · exact ⟨route, t, ht, _, hlinked, [], _, hself, by rw [List.append_nil]⟩
    · exact ⟨outer, u, hu, q, hq, rest, _, hx, rfl⟩

theorem isConnected_iff_ends : (t.view [] e).isConnected p.id = true ↔
    s.flatten.Ends (flatRef route ⟨e.id, p.id⟩) ∧ ¬ s.LinkedAround route ⟨e.id, p.id⟩ := by
  rw [isConnected_view (hs.within ht.encloses).self he hp, ends_flatten_flatRef hs ht he hb hp]
  constructor
  · exact fun h => ⟨.inl h, fun haround => h (haround.unlinked hs ht)⟩
  · exact fun ⟨h, haround⟩ => h.resolve_right haround

end

/-- Around the outermost graph nothing is linked. -/
theorem not_linkedAround_nil : ¬ s.LinkedAround [] r := by
  rintro ⟨outer, rest, -, -, hroute, hne, -⟩
  exact hne (List.append_eq_nil_iff.mp hroute.symm).2

/-! ### Lists of notes -/

theorem node_of_mem_idleSources {node : String} {pads : List PadState}
    (h : n ∈ if outermost then s.idleSources path node pads else []) : n.node = path ++ node := by
  split at h
  · obtain ⟨p, -, rfl⟩ := List.mem_map.mp h
    rfl
  · cases h

theorem notesWithin_of_plugin (hb : e.body = .plugin type) : s.notesWithin path outermost e =
    (type.notes (s.view [] e)).map (⟨path ++ e.id, ·⟩) ++
      if outermost then s.idleSources path e.id e.pads else [] := by
  rw [notesWithin, hb, notesOfBody]

/-- A member that is listed in one place only is what a list of parts has of it. -/
private theorem flatMap_eq_of_others {α β : Type} {f : α → List β} {as : List α} {a : α}
    (hnd : as.Nodup)
    (ha : a ∈ as) (hothers : ∀ b ∈ as, b ≠ a → f b = []) : as.flatMap f = f a := by
  obtain ⟨front, back, rfl⟩ := List.append_of_mem ha
  obtain ⟨-, hback, hdisjoint⟩ := List.nodup_append.mp hnd
  have hfront : front.flatMap f = [] := List.flatMap_eq_nil_iff.mpr fun b hb =>
    hothers b (List.mem_append_left _ hb) (hdisjoint b hb a List.mem_cons_self)
  have hrest : back.flatMap f = [] := List.flatMap_eq_nil_iff.mpr fun b hb =>
    hothers b (List.mem_append_right _ (List.mem_cons_of_mem _ hb)) fun h =>
      (List.nodup_cons.mp hback).1 (h ▸ hb)
  rw [List.flatMap_append, List.flatMap_cons, hfront, hrest, List.nil_append, List.append_nil]

section

variable (hs : s.Everywhere Exact)

include hs

/-- Nothing is said of targets that are missing. -/
theorem notesWithin_of_subgraph (he : e ∈ s.nodes) (hb : e.body = .subgraph id inner)
    (outer : List String) :
    s.notesWithin (routeText outer) outermost e = inner.notesAt
    (routeText (outer ++ [e.id])) false ++
      if outermost then s.idleSources (routeText outer) e.id e.pads else [] := by
  rw [notesWithin, hb, notesOfBody, view,
    missingTargets_eq_nil (hs.body he id inner hb).self.wellFormed
    (hs.self.mirrored e he id inner hb), List.nil_append, ← routeText_concat]

/-- A note is listed under the text of a route and the id of a node there; the route is empty or
goes through the node that the note was listed for. -/
theorem exists_node_of_mem_notesWithin (he : e ∈ s.nodes) (outer : List String)
    (h : n ∈ s.notesWithin (routeText outer) outermost e) : ∃ route t, s.HoldsAt route t ∧
      ∃ d ∈ t.nodes, n.node = routeText (outer ++ route) ++ d.id ∧ (route ++ [d.id]).head? =
      some e.id := by
  induction s using insideInduction generalizing e outer outermost with
  | step s ih =>
    have hhere : n.node = routeText outer ++ e.id → ∃ route t, s.HoldsAt route t ∧
        ∃ d ∈ t.nodes, n.node = routeText (outer ++ route) ++ d.id ∧ (route ++ [d.id]).head? =
        some e.id :=
      fun hid => ⟨[], s, .here s, e, he, by rw [List.append_nil, hid], rfl⟩
    cases hb : e.body with
    | plugin type =>
      rw [notesWithin_of_plugin hb] at h
      rcases List.mem_append.mp h with h | h
      · obtain ⟨note, -, rfl⟩ := List.mem_map.mp h
        exact hhere rfl
      · exact hhere (node_of_mem_idleSources h)
    | subgraph id inner =>
      rw [notesWithin_of_subgraph hs he hb] at h
      rcases List.mem_append.mp h with h | h
      · rw [notesAt_eq] at h
        obtain ⟨c, hc, h⟩ := List.mem_flatMap.mp h
        obtain ⟨route, t, ht, d, hd, hid, -⟩ := ih e he id inner hb (hs.body he id inner hb) hc _ h
        rw [List.append_assoc, List.singleton_append] at hid
        exact ⟨_, t, .inside he hb ht, d, hd, hid, rfl⟩
      · exact hhere (node_of_mem_idleSources h)

/-- What is listed for another node, and inside it, is listed under other ids. -/
theorem filter_notesWithin_of_ne (ht : s.HoldsAt route t) (he : e ∈ t.nodes) (hd : d ∈ s.nodes)
    (hne : some d.id ≠ (route ++ [e.id]).head?) (outer : List String) :
    (s.notesWithin (routeText outer) outermost d).filter
    (·.node == routeText (outer ++ route) ++ e.id) = [] := by
  rw [List.filter_eq_nil_iff]
  intro n hn hid
  obtain ⟨route', t', ht', c, hc, hnode, hhead⟩ := exists_node_of_mem_notesWithin hs hd outer hn
  rw [beq_iff_eq, hnode, routeText_append, routeText_append, String.append_assoc,
    String.append_assoc, String.append_right_inj] at hid
  obtain ⟨rfl, rfl⟩ := eq_of_flat_id hs ht' hc ht he hid
  exact hne hhead.symm

theorem filter_notesAt_eq (ht : s.HoldsAt route t) (he : e ∈ t.nodes) (hd : d ∈ s.nodes)
    (hhead : (route ++ [e.id]).head? = some d.id) (outer : List String) :
    (s.notesAt (routeText outer) outermost).filter (·.node == routeText (outer ++ route) ++ e.id) =
      (s.notesWithin (routeText outer) outermost d).filter
      (·.node == routeText (outer ++ route) ++ e.id) := by
  rw [notesAt_eq, List.filter_flatMap]
  refine flatMap_eq_of_others hs.self.wellFormed.distinctNodes.of_map hd fun c hc hne => ?_
  refine filter_notesWithin_of_ne hs ht he hc (fun h => hne ?_) outer
  exact eq_of_id_eq hs hc hd (Option.some.inj (h.trans hhead))

/-- For a node of a type the notes of this type are listed, and in the outermost graph its idle
sources. -/
theorem filter_notesAt (ht : s.HoldsAt route t) (he : e ∈ t.nodes) (hb : e.body = .plugin type)
    (outer : List String) (outermost : Bool) :
    (s.notesAt (routeText outer) outermost).filter (·.node == routeText (outer ++ route) ++ e.id) =
      (type.notes (t.view [] e)).map (⟨routeText (outer ++ route) ++ e.id, ·⟩) ++
        if outermost = true ∧ route = [] then s.idleSources (routeText outer) e.id e.pads
        else [] := by
  induction ht generalizing outer outermost with
  | here s =>
    rw [filter_notesAt_eq hs (.here s) he he rfl, notesWithin_of_plugin hb, List.append_nil]
    simp only [and_true]
    refine List.filter_eq_self.mpr fun n hn => beq_iff_eq.mpr ?_
    rcases List.mem_append.mp hn with hn | hn
    · obtain ⟨note, -, rfl⟩ := List.mem_map.mp hn
      rfl
    · exact node_of_mem_idleSources hn
  | @inside s inner t c id route mem body rest ih =>
    have hidle : (if outermost then s.idleSources (routeText outer) c.id c.pads else []).filter
        (·.node == routeText (outer ++ c.id :: route) ++ e.id) = [] := by
      rw [List.filter_eq_nil_iff]
      intro n hn hid
      rw [beq_iff_eq, node_of_mem_idleSources hn, routeText_append, String.append_assoc,
        String.append_right_inj] at hid
      cases (eq_of_flat_id hs (.here s) mem (.inside mem body rest) he hid).1
    rw [filter_notesAt_eq hs (.inside mem body rest) he mem rfl,
      notesWithin_of_subgraph hs mem body,
      List.filter_append, hidle, List.append_nil, ← List.singleton_append, ← List.append_assoc,
      ih (hs.body mem id inner body) he]
    simp

theorem remarks_of_exact : s.Remarks where
  connected _ _ ht _ he _ hb _ hp := isConnected_iff_ends hs ht he hb hp
  around route t ht e he type hb p hp haround := by
    refine ⟨?_, (ends_flatten_flatRef hs ht he hb hp).mpr (.inr haround)⟩
    rintro rfl
    exact not_linkedAround_nil haround
  listed route t ht e he type hb := by
    have hlisted := filter_notesAt hs ht he hb [] true
    simp only [List.nil_append, routeText_nil, true_and] at hlisted
    cases ht with
    | here => exact hlisted
    | inside => exact hlisted

/-! ### What is shown from outside -/

/-- What the pads of a subgraph node show inside, a link of theirs shows, or it was shown to
them. -/
theorem exists_proxy_of_shown (he : e ∈ s.nodes)
    (h : ((externalOf e.pads (s.peerViews external e)).get? r).isSome = true) :
    ∃ p ∈ e.pads, p.proxy = some r ∧
      (¬ s.Unlinked ⟨e.id, p.id⟩ ∨ (external.get? ⟨e.id, p.id⟩).isSome = true) := by
  have hwf := hs.self.wellFormed
  rw [External.get?, Option.isSome_map, Option.isSome_iff_exists] at h
  obtain ⟨x, hx⟩ := h
  obtain ⟨p, hp, hproxy, hconnected, -⟩ :=
    (mem_externalOf (V := fun p => s.peerView external ⟨e.id, p.id⟩ p) (hwf.distinctPads e he)).mp
      (List.mem_of_find?_eq_some hx)
  have hxr : x.1 = r := by simpa using List.find?_some hx
  exact ⟨p, hp, hxr ▸ hproxy,
    (connected_peerView (hwf.joined hs.self.ordered) (hwf.pad?_eq he hp)).mp hconnected⟩

end

theorem LinkedAround.inside (h : inner.LinkedAround route r) (he : e ∈ s.nodes)
    (hb : e.body = .subgraph id inner) : s.LinkedAround (e.id :: route) r := by
  obtain ⟨outer, rest, t, q, rfl, hne, ht, hq, hx⟩ := h
  exact ⟨e.id :: outer, rest, t, q, rfl, hne, .inside he hb ht, hq, hx⟩

section

variable {T : String → NodeType → Prop} (hT : ∀ name t, T name t → t.Tame) {config : EngineConfig}
  {m : Nat}

include hT

/-- Inside a resolved graph, every graph is resolved under what is shown to it, and that comes in
through links further out. -/
theorem exists_reconciled_of_holdsAt (hs : s.Everywhere Exact)
    (hext : external.In Constraints.Plain)
    (hnested : s.Nested T Constraints.Plain m) (h : Reconciled (innerResolver config m) external s)
    (ht : s.HoldsAt route t) : ∃ m external', Reconciled (innerResolver config m) external' t ∧
      ∀ q, t.Denotes q [] q → (external'.get? q).isSome = true →
        s.LinkedAround route q ∨ ∃ x, s.Denotes x route q ∧ (external.get? x).isSome = true := by
  induction ht generalizing external m with
  | here s => exact ⟨m, external, h, fun q hq hshown => .inr ⟨q, hq, hshown⟩⟩
  | @inside s inner t e id route mem body rest ih =>
    cases m with
    | zero => exact ((nested_zero_iff.mp hnested).fit e mem).inner id inner body |>.elim
    | succ m =>
      have horderly := nested_succ_iff.mp hnested
      have hin : (externalOf e.pads (s.peerViews external e)).In Constraints.Plain :=
        externalOf_in (peerViews_in (Regime.tame hT) hext horderly.padsIn e)
      have hinner := (horderly.fit e mem).inner id inner body
      obtain ⟨m', external', hrec, hshown⟩ := ih (hs.body mem id inner body) hin hinner
        (reconciled_of_reconcileWithin hT hin hinner ((h.settled e mem).resolved body).1)
      refine ⟨m', external', hrec, fun q hq hsome => ?_⟩
      rcases hshown q hq hsome with haround | ⟨x, hx, hsome⟩
      · exact .inl (haround.inside mem body)
      · obtain ⟨p, hp, hproxy, hlinked | hsome⟩ := exists_proxy_of_shown hs mem hsome
        · exact .inl ⟨[], e.id :: route, s, ⟨e.id, p.id⟩, rfl, by simp, .here s, hlinked,
            .proxy mem body hp hproxy hx⟩
        · exact .inr ⟨_, .proxy mem body hp hproxy hx, hsome⟩

/-- In a resolved graph a compare to which nothing comes in from further out declares the menu that
its notes are about. -/
theorem compares_of_reconciled (hs : s.Everywhere Exact) (hnested : s.Nested T Constraints.Plain m)
    (h : Reconciled (innerResolver config m) [] s) : s.Compares := by
  intro route t ht e he hb haround
  obtain ⟨m, external, hrec, hshown⟩ :=
    exists_reconciled_of_holdsAt hT hs (by simp [External.In]) hnested h ht
  have hnothing : ∀ p ∈ e.pads, external.get? ⟨e.id, p.id⟩ = none := by
    intro p hp
    rw [← Option.not_isSome_iff_eq_none]
    intro hsome
    rcases hshown _ (.plugin he hb hp) hsome with h | ⟨x, -, h⟩
    · exact haround p hp h
    · cases h
  -- so resolution saw what the notes see
  have hview : t.view external e = t.view [] e := by
    rw [view, view, NodeView.mk.injEq]
    refine ⟨rfl, rfl, List.map_congr_left fun p hp => ?_⟩
    rw [peerView, peerView, externalView, externalView, hnothing p hp]
    rfl
  obtain ⟨specs, hspecs, hdeclared⟩ := (hrec.settled e he).declaredBy hb
  rw [hview] at hspecs
  obtain ⟨p, hp, hspec⟩ := exists_of_forall₂ hdeclared.flip (Compare.operatorSpec_mem hspecs)
  exact ⟨p, hp, hspec.id, _, hspec.constraints, Compare.notes_ne_nil_iff _⟩

end

end GraphState

/-! ### After any operations -/

namespace Graph

/-- After any sequence of operations on a new graph, whatever the library and the settings, the
notes listed for a node of a type at any depth are those that its type gives where a pad is
connected when its flat form is an end of a flat link that does not come in from further out; the
outermost graph remarks on idle sources besides (`GraphState.Remarks`). Of built-in types, a
compare to which nothing comes in from further out reports its operands just when its menu is empty
(`GraphState.Compares`). -/
theorem remarks_run (library : Library) (config : EngineConfig) (ops : List Operation) :
    ((Graph.new library config).run ops).state.Remarks ∧
      (library.types = Library.builtins.types →
        ((Graph.new library config).run ops).state.Compares) := by
  have hexact := everywhere_exact_run library config ops
  refine ⟨GraphState.remarks_of_exact hexact, fun hlib => ?_⟩
  have hrest := rested_run hlib config ops rfl
  have hsane := (sane_resolved_run hlib config ops).1
  exact GraphState.compares_of_reconciled (Library.tame_of_has hlib) hexact
    ⟨Nat.le_refl _, hsane.orderly⟩ hrest.toReconciled

theorem edited_insertNode {g : Graph} {id nodeType : String} {type : NodeType} {s : GraphState}
    (htype : g.library.create nodeType = .ok type)
    (hid : id ≠ "" ∧ ':' ∉ id.toList ∧ '/' ∉ id.toList)
    (hnew : g.state.contains id = false) (h : GraphState.reconcile g.config []
      { g.state with nodes := g.state.nodes ++ [NodeEntry.plugin id nodeType type] } = .ok s) :
    g.edited (.insertNode (some id) nodeType none none) = .ok s := by
  have hadd := GraphState.addNode_of_new (e := NodeEntry.plugin id nodeType type) hid hnew
  rw [edited]
  simp only [editState, htype, bind, Except.bind, Option.getD_some]
  exact (congrArg (· >>= GraphState.reconcile g.config []) hadd).trans h

/-- A property node that holds a number. -/
def numberNode (n : Int) : NodeEntry where
  id := "a"
  nodeType := "IntegerProperty"
  editor := {}
  pads := [{
    id := "value"
    padType := .propertySource
    declared := some [.integer none none]
    effective := some [.integer none none]
    value := some (.int n) }]
  state := .resolved
  body := .plugin PropertyNode.integer

/-- Puts a display into a subgraph, fed by a number outside it. -/
def feedInside : GraphEdit :=
  .insertInlineSubgraph (some "s") none ⟨[.bare "d" "Display"]⟩ [⟨⟨"a", "value"⟩, ⟨"d", "value"⟩⟩]
    [] [] none none

/-- A display that whole numbers come to. -/
def fedDisplay : NodeEntry where
  id := "d"
  nodeType := "Display"
  editor := {}
  pads := [{ id := "value", padType := .propertySink, effective := some [.integer none none] }]
  state := .resolved
  body := .plugin Display.nodeType

/-- The subgraph around the display. -/
def aroundDisplay : NodeEntry where
  id := "s"
  nodeType := subgraphType
  editor := {}
  pads := [{
    id := "d:value"
    padType := .propertySink
    declared := some [.integer none none]
    effective := some [.integer none none]
    proxy := some ⟨"d", "value"⟩ }]
  state := .resolved
  body := .subgraph none ⟨[fedDisplay], []⟩

/-- A number that feeds a display in a subgraph. -/
def displayInside : GraphState :=
  ⟨[numberNode 0, aroundDisplay], [⟨⟨"a", "value"⟩, ⟨"s", "d:value"⟩⟩]⟩

/-- A display that nothing comes to. -/
def idleDisplay : NodeEntry :=
  { fedDisplay with pads := [{ id := "value", padType := .propertySink }] }

/-- The subgraph around it, not resolved. -/
def aroundIdle : NodeEntry where
  id := "s"
  nodeType := subgraphType
  editor := {}
  pads := [{ id := "d:value", padType := .propertySink, proxy := some ⟨"d", "value"⟩ }]
  state := .unresolved
  body := .subgraph none ⟨[idleDisplay], []⟩

/-- What is loaded into the subgraph. -/
theorem load_display : GraphState.load Library.builtins {} ⟨[.bare "d" "Display"]⟩ =
    .ok ⟨[{ idleDisplay with state := .unresolved }], []⟩ := by
  have hnode : GraphState.loadNode Library.builtins {} (.bare "d" "Display") =
      .ok { idleDisplay with state := .unresolved } := by
    rw [NodeSnapshot.bare, GraphState.loadNode, if_neg (by decide)]
    rfl
  have hadd : GraphState.empty.addNode { idleDisplay with state := .unresolved } =
      .ok ⟨[{ idleDisplay with state := .unresolved }], []⟩ :=
    GraphState.addNode_of_new (by decide) rfl
  have hlinks : GraphSnapshot.links ⟨[.bare "d" "Display"]⟩ = [] := by
    simp [GraphSnapshot.links, NodeSnapshot.bare, List.eraseReps, List.eraseRepsBy]
  simp only [GraphState.load, GraphState.loadNodes, hnode, hadd, hlinks, bind, Except.bind]
  rfl

theorem edited_feedInside {g : Graph} (hlibrary : g.library = Library.builtins)
    (hconfig : g.config = {}) (hstate : g.state = ⟨[numberNode 0], []⟩) :
    g.edited feedInside = .ok displayInside := by
  have hinner : GraphState.subgraphEntry {} "s" none
      ⟨[{ idleDisplay with state := .unresolved }], []⟩ = .ok aroundIdle := rfl
  have hadd : (⟨[numberNode 0], []⟩ : GraphState).addNode { aroundIdle with editor := {} } =
      .ok ⟨[numberNode 0, aroundIdle], []⟩ :=
    GraphState.addNode_of_new (by decide) rfl
  have hresolve : GraphState.reconcile {} [] ⟨[{ numberNode 0 with state := .unresolved },
      aroundIdle], [⟨⟨"a", "value"⟩, ⟨"s", "d:value"⟩⟩]⟩ = .ok displayInside := by
    with_unfolding_all rfl
  rw [edited, feedInside, editState, hlibrary, hconfig, hstate, GraphState.insertInlineSubgraph,
    load_display]
  simp only [GraphState.removeNodes, bind, Except.bind, Option.getD_some, hinner, hadd]
  exact hresolve

/-- The display warns that there is nothing to display, although a flat link ends at it. -/
theorem remarks_run_displayInside : ∃ ops, ((Graph.new Library.builtins {}).run ops).state =
    displayInside ∧
    displayInside.Remarks ∧ displayInside.LinkedAround ["s"] ⟨"d", "value"⟩ ∧
    displayInside.flatten.Ends ⟨"s/d", "value"⟩ ∧
    displayInside.notes = [⟨"s/d", ⟨.warning, "nothing to display", some "value"⟩⟩] := by
  have hnumber : (Graph.new Library.builtins {}).edited
      (.insertNode (some "a") "IntegerProperty" none none) = .ok ⟨[numberNode 0], []⟩ :=
    edited_insertNode rfl (by decide) rfl rfl
  have hdisplay : ((Graph.new Library.builtins {}).commit ⟨[numberNode 0], []⟩).edited feedInside =
      .ok displayInside := edited_feedInside rfl rfl rfl
  have hstate : ((Graph.new Library.builtins {}).run
      [.edit (.insertNode (some "a") "IntegerProperty" none none), .edit feedInside]).state =
      displayInside := by
    rw [run_edit hnumber, run_edit hdisplay]
    rfl
  have hremarks := (remarks_run Library.builtins {}
    [.edit (.insertNode (some "a") "IntegerProperty" none none), .edit feedInside]).1
  rw [hstate] at hremarks
  have haround : displayInside.LinkedAround ["s"] ⟨"d", "value"⟩ := by
    refine ⟨[], ["s"], displayInside, ⟨"s", "d:value"⟩, rfl, by simp, .here _,
      GraphState.linked_iff.mpr ⟨_, List.mem_singleton_self _, .inr rfl⟩, ?_⟩
    exact .proxy (e := aroundDisplay) (by simp [displayInside]) rfl (List.mem_singleton_self _) rfl
      (.plugin (e := fedDisplay) (List.mem_singleton_self _) rfl (List.mem_singleton_self _))
  refine ⟨_, hstate, hremarks, haround, ?_, rfl⟩
  have hinside : displayInside.HoldsAt ["s"] ⟨[fedDisplay], []⟩ :=
    .inside (e := aroundDisplay) (by simp [displayInside]) rfl (.here _)
  exact (hremarks.around _ _ hinside fedDisplay (List.mem_singleton_self _) _ rfl _
    (List.mem_singleton_self _) haround).2

end Graph

end Patchbay
