import Patchbay.Proofs.Graph.Routes

/-!
# Flat graphs are faithful

The flat form of an exact graph has one node for every node of a type at any depth, called after
the route to it, and one link for every link at any depth, between the pads that its ends denote
(`GraphState.FlattensTo`). No link is lost, since every pad denotes one, and no two links come to
the same sink: two that denote it on one level are one link, and a link inside joins only pads that
are denoted by none of the pads around them.
-/

namespace Patchbay

/-- The flat form of a node in the graph at a route, whose id is the text of the route. -/
def flatNode (route : List String) (e : NodeEntry) (type : NodeType) : FlatNode :=
  ⟨routeText route ++ e.id, e.nodeType, type, e.pads⟩

/-- The flat address of a pad in the graph at a route, as `flatAddress` gives it. -/
def flatRef (route : List String) (r : PadRef) : PadRef := ⟨routeText route ++ r.node, r.pad⟩

/-- The flat graph has a pad at an address. -/
def FlatGraph.HasPad (f : FlatGraph) (r : PadRef) (p : PadState) : Prop :=
  ∃ n ∈ f.nodes, n.id = r.node ∧ p ∈ n.pads ∧ p.id = r.pad

namespace GraphState

/-- The flat link `k` joins the pads that the ends of `l` denote (`Denotes`), a link in the graph
at a route. -/
def Joins (s : GraphState) (route : List String) (l k : Link) : Prop :=
  ∃ a x b y, s.Denotes l.source a x ∧ s.Denotes l.sink b y ∧
    k = ⟨flatRef (route ++ a) x, flatRef (route ++ b) y⟩

/-- A faithful flat form: nodes of types and flat nodes correspond, with distinct ids, links and
flat links correspond, every flat link joins a source to a sink, and no two have the same sink. -/
structure FlattensTo (s : GraphState) (f : FlatGraph) : Prop where
  nodes : ∀ n, n ∈ f.nodes ↔ ∃ route t, s.HoldsAt route t ∧
    ∃ e ∈ t.nodes, ∃ type, e.body = .plugin type ∧ n = flatNode route e type
  distinct : (f.nodes.map (·.id)).Nodup
  apart : ∀ route t e route' t' e', s.HoldsAt route t → e ∈ t.nodes → s.HoldsAt route' t' →
    e' ∈ t'.nodes → routeText route ++ e.id = routeText route' ++ e'.id → route = route' ∧ e = e'
  links : ∀ k, k ∈ f.links ↔ ∃ route t, s.HoldsAt route t ∧ ∃ l ∈ t.links, t.Joins route l k
  kept : ∀ route t, s.HoldsAt route t → ∀ l ∈ t.links, ∃! k, t.Joins route l k
  linksApart : ∀ route t l route' t' l' k, s.HoldsAt route t → l ∈ t.links → t.Joins route l k →
    s.HoldsAt route' t' → l' ∈ t'.links → t'.Joins route' l' k → route = route' ∧ l = l'
  joined : ∀ k ∈ f.links, ∃ p q, f.HasPad k.source p ∧ p.isSource = true ∧
    f.HasPad k.sink q ∧ q.isSource = false
  sinks : (f.links.map (·.sink)).Nodup

variable {s t t' : GraphState} {e e' : NodeEntry} {route route' outer : List String}
  {r r' : PadRef} {l l' k k' : Link} {n : FlatNode} {path : String}

/-! ### Addresses -/

theorem routeText_concat (outer : List String) (id : String) :
    routeText (outer ++ [id]) = routeText outer ++ id ++ "/" := by
  rw [routeText_append, routeText_cons, routeText_nil, String.append_empty, String.append_assoc]

theorem flatRef_append_inj {x y : PadRef} :
    flatRef (outer ++ route) x = flatRef (outer ++ route') y ↔
    flatRef route x = flatRef route' y := by
  simp only [flatRef, routeText_append, String.append_assoc, PadRef.mk.injEq,
    String.append_right_inj]

theorem flatAddress_eq (h : s.node? r.node = some e) :
    flatAddress path s r = flatAddressOfBody path e.pads e.body r := by
  have hnodes : ∀ {nodes : List NodeEntry}, nodes.find? (fun e => e.id == r.node) = some e →
      flatAddressIn path nodes r = flatAddressOf path e r := by
    intro nodes h
    induction nodes with
    | nil => cases h
    | cons d rest ih =>
      rw [flatAddressIn]
      rw [List.find?_cons] at h
      split at h
      · rename_i hd
        rw [if_pos hd, Option.some.inj h]
      · rename_i hd
        rw [if_neg (by simp [hd])]
        exact ih h
  cases s
  cases e
  exact hnodes h

section

variable (hs : s.Everywhere Exact)

include hs

/-- A pad is led to what it denotes. -/
theorem flatAddress_of_denotes (h : s.Denotes r route r') (outer : List String) :
    flatAddress (routeText outer) s r = some (flatRef (outer ++ route) r') := by
  have hwf := hs.self.wellFormed
  induction h generalizing outer with
  | @plugin s e type p mem body pad =>
    rw [flatAddress_eq (node?_of_mem hwf.distinctNodes mem), body, flatAddressOfBody,
      List.append_nil, flatRef]
  | @proxy s inner e id p target r' route mem body pad proxy _ ih =>
    have hin := hs.body mem id inner body
    rw [flatAddress_eq (node?_of_mem hwf.distinctNodes mem), body, flatAddressOfBody,
      findPad_of_mem (hwf.distinctPads e mem) pad, Option.bind_some, proxy]
    show flatAddress (routeText outer ++ e.id ++ "/") inner target = _
    rw [← routeText_concat, ih hin _ hin.self.wellFormed, List.append_assoc, List.singleton_append]

theorem flatLink_of_joins (h : s.Joins route l k) : s.flatLink (routeText route) l = some k := by
  obtain ⟨a, x, b, y, hsource, hsink, rfl⟩ := h
  rw [flatLink, flatAddress_of_denotes hs hsource, flatAddress_of_denotes hs hsink]

/-- No link is lost, because every pad denotes one of a node that is not a subgraph. -/
theorem exists_joins (hl : l ∈ s.links) (route : List String) : ∃ k, s.Joins route l k := by
  obtain ⟨p, q, hp, hq, -⟩ := hs.self.wellFormed.linked l hl
  obtain ⟨a, x, hsource⟩ := exists_denotes hs hp
  obtain ⟨b, y, hsink⟩ := exists_denotes hs hq
  exact ⟨_, a, x, b, y, hsource, hsink, rfl⟩

theorem flatLink_eq_some (hl : l ∈ s.links) :
    s.flatLink (routeText route) l = some k ↔ s.Joins route l k := by
  refine ⟨fun h => ?_, flatLink_of_joins hs⟩
  obtain ⟨k', hk'⟩ := exists_joins hs hl route
  rw [flatLink_of_joins hs hk', Option.some.injEq] at h
  exact h ▸ hk'

/-! ### Telling apart -/

/-- The text of an id at the end of a route tells the node: ids hold no separator, so that a text
is split in one way only. -/
theorem eq_of_flat_id (ht : s.HoldsAt route t) (he : e ∈ t.nodes) (ht' : s.HoldsAt route' t')
    (he' : e' ∈ t'.nodes) (h : routeText route ++ e.id = routeText route' ++ e'.id) :
    route = route' ∧ e = e' := by
  have hin := hs.within ht.encloses
  have hin' := hs.within ht'.encloses
  obtain ⟨rfl, hid⟩ := routeText_append_inj (ht.valid hs) (ht'.valid hs)
    (hin.self.wellFormed.validIds e he).2.2 (hin'.self.wellFormed.validIds e' he').2.2 h
  obtain rfl := ht.det hs ht'
  exact ⟨rfl, eq_of_id_eq hin he he' hid⟩

theorem eq_of_flatRef {b b' : List String} {x y : PadRef} (ht : s.HoldsAt route t)
    (ht' : s.HoldsAt route' t') (hx : t.Denotes r b x) (hy : t'.Denotes r' b' y)
    (h : flatRef (route ++ b) x = flatRef (route' ++ b') y) : route ++ b = route' ++ b' ∧
    x = y := by
  obtain ⟨-, -, u, hu, e, he, -, -, p, -, rfl, -⟩ := hx.target (hs.within ht.encloses)
  obtain ⟨-, -, u', hu', e', he', -, -, p', -, rfl, -⟩ := hy.target (hs.within ht'.encloses)
  rw [flatRef, flatRef, PadRef.mk.injEq] at h
  obtain ⟨hroute, rfl⟩ := eq_of_flat_id hs (ht.trans hu) he (ht'.trans hu') he' h.1
  exact ⟨hroute, congrArg _ h.2⟩

/-- A link inside comes to no sink that a link around it comes to, and links of one graph come to
different sinks. The induction is on the routes. -/
private theorem eq_of_sink_append {b b' : List String} {y : PadRef} (ht : s.HoldsAt route t)
    (hl : l ∈ s.links)
    (hl' : l' ∈ t.links) (hb : b = route ++ b') (hsink : s.Denotes l.sink b y)
    (hsink' : t.Denotes l'.sink b' y) : route = [] ∧ l = l' := by
  subst hb
  by_cases hne : route = []
  · subst hne
    obtain rfl := holdsAt_nil_iff.mp ht
    exact ⟨rfl, hs.self.ordered.eq_of_sink_eq hl hl' (hsink.eq_of_denotes hs hsink')⟩
  · obtain ⟨q, hun, hq⟩ := hsink.unlinked hs ht hne
    obtain rfl := hq.eq_of_denotes (hs.within ht.encloses) hsink'
    exact absurd rfl (hun l' hl').2

/-- Links at any depth that come to the same flat sink are one link. -/
theorem eq_of_sink_eq (ht : s.HoldsAt route t) (hl : l ∈ t.links) (hk : t.Joins route l k)
    (ht' : s.HoldsAt route' t') (hl' : l' ∈ t'.links) (hk' : t'.Joins route' l' k')
    (h : k.sink = k'.sink) : route = route' ∧ l = l' := by
  obtain ⟨a, x, b, y, -, hsink, rfl⟩ := hk
  obtain ⟨a', x', b', y', -, hsink', rfl⟩ := hk'
  obtain ⟨hroute, rfl⟩ := eq_of_flatRef hs ht ht' hsink hsink' h
  -- one of the two graphs lies in the other
  rcases List.append_eq_append_iff.mp hroute with ⟨c, rfl, hb⟩ | ⟨c, rfl, hb⟩
  · obtain ⟨u, hu, hc⟩ := ht'.split
    obtain rfl := hu.det hs ht
    obtain ⟨rfl, rfl⟩ := eq_of_sink_append (hs.within ht.encloses) hc hl hl' hb hsink hsink'
    exact ⟨by simp, rfl⟩
  · obtain ⟨u, hu, hc⟩ := ht.split
    obtain rfl := hu.det hs ht'
    obtain ⟨rfl, rfl⟩ := eq_of_sink_append (hs.within ht'.encloses) hc hl' hl hb hsink' hsink
    exact ⟨by simp, rfl⟩

end

/-! ### The flat graph -/

theorem flattenAt_eq (s : GraphState) (path : String) : s.flattenAt path =
    ⟨s.nodes.flatMap fun e => (flattenBody (path ++ e.id) e.nodeType e.pads e.body).nodes,
      (s.nodes.flatMap fun e => (flattenBody (path ++ e.id) e.nodeType e.pads e.body).links) ++
        s.links.filterMap (s.flatLink path)⟩ := by
  have hnodes : ∀ nodes : List NodeEntry, flattenNodes path nodes =
      ⟨nodes.flatMap fun e => (flattenBody (path ++ e.id) e.nodeType e.pads e.body).nodes,
        nodes.flatMap fun e => (flattenBody (path ++ e.id) e.nodeType e.pads e.body).links⟩ := by
    intro nodes
    induction nodes with
    | nil => rfl
    | cons e rest ih =>
      rw [flattenNodes, ih]
      cases e
      rfl
  cases s
  rw [flattenAt, hnodes]

/-- What is found at the end of a route is found in the graph itself, or in one of its nodes. -/
theorem exists_holdsAt_iff {Q : List String → GraphState → Prop} :
    (∃ route t, s.HoldsAt route t ∧ Q route t) ↔ Q [] s ∨ ∃ e ∈ s.nodes, ∃ id inner,
      e.body = .subgraph id inner ∧ ∃ route t, inner.HoldsAt route t ∧ Q (e.id :: route) t := by
  constructor
  · rintro ⟨route, t, ht, hQ⟩
    cases ht with
    | here => exact .inl hQ
    | inside mem body rest => exact .inr ⟨_, mem, _, _, body, _, t, rest, hQ⟩
  · rintro (hQ | ⟨e, he, id, inner, hb, route, t, ht, hQ⟩)
    · exact ⟨[], s, .here s, hQ⟩
    · exact ⟨_, t, .inside he hb ht, hQ⟩

theorem mem_flattenBody_nodes :
    n ∈ (flattenBody (routeText outer ++ e.id) e.nodeType e.pads e.body).nodes ↔
      (∃ type, e.body = .plugin type ∧ n = flatNode outer e type) ∨ ∃ id inner,
        e.body = .subgraph id inner ∧
        n ∈ (inner.flattenAt (routeText (outer ++ [e.id]))).nodes := by
  cases e.body with
  | plugin type => simp [flattenBody, flatNode]
  | subgraph id inner => simp [flattenBody, routeText_concat]

theorem mem_flattenBody_links :
    k ∈ (flattenBody (routeText outer ++ e.id) e.nodeType e.pads e.body).links ↔ ∃ id inner,
      e.body = .subgraph id inner ∧ k ∈ (inner.flattenAt (routeText (outer ++ [e.id]))).links := by
  cases e.body with
  | plugin type => simp [flattenBody]
  | subgraph id inner => simp [flattenBody, routeText_concat]

theorem mem_flattenAt_nodes (outer : List String) : n ∈ (s.flattenAt (routeText outer)).nodes ↔
    ∃ route t, s.HoldsAt route t ∧
      ∃ e ∈ t.nodes, ∃ type, e.body = .plugin type ∧ n = flatNode (outer ++ route) e type := by
  induction s using insideInduction generalizing outer with
  | step s ih =>
    rw [exists_holdsAt_iff (Q := fun route t => ∃ e ∈ t.nodes, ∃ type, e.body = .plugin type ∧
      n = flatNode (outer ++ route) e type), flattenAt_eq, List.mem_flatMap, List.append_nil,
      ← exists_or]
    refine exists_congr fun e => ?_
    rw [← and_or_left]
    refine and_congr_right fun he => ?_
    rw [mem_flattenBody_nodes]
    refine or_congr_right (exists₂_congr fun id inner => and_congr_right fun hb => ?_)
    rw [ih e he id inner hb (outer ++ [e.id])]
    simp only [List.append_assoc, List.singleton_append]

theorem mem_flattenAt_links (outer : List String) (hs : s.Everywhere Exact) :
    k ∈ (s.flattenAt (routeText outer)).links ↔
    ∃ route t, s.HoldsAt route t ∧ ∃ l ∈ t.links, t.Joins (outer ++ route) l k := by
  induction s using insideInduction generalizing outer with
  | step s ih =>
    rw [exists_holdsAt_iff (Q := fun route t => ∃ l ∈ t.links, t.Joins (outer ++ route) l k),
      flattenAt_eq, List.mem_append, or_comm, List.mem_filterMap, List.append_nil,
      List.mem_flatMap]
    refine or_congr (exists_congr fun l => and_congr_right fun hl => flatLink_eq_some hs hl)
      (exists_congr fun e => and_congr_right fun he => ?_)
    rw [mem_flattenBody_links]
    refine exists₂_congr fun id inner => and_congr_right fun hb => ?_
    rw [ih e he id inner hb (outer ++ [e.id]) (hs.body he id inner hb)]
    simp only [List.append_assoc, List.singleton_append]

/-! ### No id and no sink twice -/

/-- Parts of a flat list hold no key twice, if each of them holds none twice, and keys tell their
nodes. -/
private theorem nodup_flatMap_of_key {α β : Type} {f : NodeEntry → List α} {key : α → β}
    (hd : (s.nodes.map (·.id)).Nodup) (hf : ∀ e ∈ s.nodes, ((f e).map key).Nodup)
    (hkey : ∀ e ∈ s.nodes, ∀ e' ∈ s.nodes, ∀ a ∈ f e, ∀ a' ∈ f e', key a = key a' → e.id = e'.id) :
    ((s.nodes.flatMap f).map key).Nodup := by
  rw [List.map_flatMap, List.nodup_flatMap]
  refine ⟨hf, ?_⟩
  rw [List.Nodup, List.pairwise_map] at hd
  refine hd.imp_of_mem fun {e e'} he he' hne x hx hx' => ?_
  obtain ⟨a, ha, rfl⟩ := List.mem_map.mp hx
  obtain ⟨a', ha', hkk⟩ := List.mem_map.mp hx'
  exact hne (hkey e he e' he' a ha a' ha' hkk.symm)

/-- A flat node of a node is at a route that is empty or goes through it, and the id tells which
node. -/
private theorem exists_of_mem_body (he : e ∈ s.nodes)
    (hn : n ∈ (flattenBody (routeText outer ++ e.id) e.nodeType e.pads e.body).nodes) :
    ∃ route t, s.HoldsAt route t ∧ ∃ d ∈ t.nodes, n.id = routeText (outer ++ route) ++ d.id ∧
      (route ++ [d.id]).head? = some e.id := by
  rcases mem_flattenBody_nodes.mp hn with ⟨type, -, rfl⟩ | ⟨id, inner, hb, hn⟩
  · exact ⟨[], s, .here s, e, he, by rw [List.append_nil]; rfl, rfl⟩
  · obtain ⟨route, t, ht, d, hd, type, -, rfl⟩ := (mem_flattenAt_nodes _).mp hn
    refine ⟨e.id :: route, t, .inside he hb ht, d, hd, ?_, rfl⟩
    rw [flatNode, List.append_assoc, List.singleton_append]

variable (hs : s.Everywhere Exact)

include hs

theorem nodup_flattenAt_ids (outer : List String) :
    ((s.flattenAt (routeText outer)).nodes.map (·.id)).Nodup := by
  induction s using insideInduction generalizing outer with
  | step s ih =>
    rw [flattenAt_eq]
    refine nodup_flatMap_of_key hs.self.wellFormed.distinctNodes (fun e he => ?_)
      fun e he e' he' n hn n' hn' hid => ?_
    · cases hb : e.body with
      | plugin type => simp [flattenBody]
      | subgraph id inner =>
        rw [flattenBody, ← routeText_concat]
        exact ih e he id inner hb (hs.body he id inner hb) _
    · obtain ⟨route, t, ht, d, hd, hnid, hhead⟩ := exists_of_mem_body he hn
      obtain ⟨route', t', ht', d', hd', hnid', hhead'⟩ := exists_of_mem_body he' hn'
      rw [hnid, hnid', routeText_append, routeText_append, String.append_assoc,
        String.append_assoc, String.append_right_inj] at hid
      obtain ⟨rfl, rfl⟩ := eq_of_flat_id hs ht hd ht' hd' hid
      exact Option.some.inj (hhead.symm.trans hhead')

theorem nodup_flattenAt_sinks (outer : List String) :
    ((s.flattenAt (routeText outer)).links.map (·.sink)).Nodup := by
  induction s using insideInduction generalizing outer with
  | step s ih =>
    -- flat links of the graphs inside are at routes that go through their nodes
    have hinside : ∀ e ∈ s.nodes, ∀ k ∈
        (flattenBody (routeText outer ++ e.id) e.nodeType e.pads e.body).links, ∃ route t,
        s.HoldsAt (e.id :: route) t ∧ ∃ l ∈ t.links, t.Joins (outer ++ e.id :: route) l k := by
      intro e he k hk
      obtain ⟨id, inner, hb, hk⟩ := mem_flattenBody_links.mp hk
      obtain ⟨route, t, ht, l, hl, hjoins⟩ :=
        (mem_flattenAt_links _ (hs.body he id inner hb)).mp hk
      rw [List.append_assoc, List.singleton_append] at hjoins
      exact ⟨route, t, .inside he hb ht, l, hl, hjoins⟩
    -- links that come to one sink are one, whatever route leads to the graph from outside
    have hsame : ∀ {route route' t t' l l' k k'}, s.HoldsAt route t → l ∈ t.links →
        t.Joins (outer ++ route) l k → s.HoldsAt route' t' → l' ∈ t'.links →
        t'.Joins (outer ++ route') l' k' → k.sink = k'.sink → route = route' ∧ l = l' := by
      rintro route route' t t' l l' k k' ht hl ⟨a, x, b, y, hx, hy, rfl⟩ ht' hl'
        ⟨a', x', b', y', hx', hy', rfl⟩ hsink
      have hsink : flatRef (outer ++ route ++ b) y = flatRef (outer ++ route' ++ b') y' := hsink
      rw [List.append_assoc, List.append_assoc, flatRef_append_inj] at hsink
      exact eq_of_sink_eq hs ht hl ⟨a, x, b, y, hx, hy, rfl⟩ ht' hl' ⟨a', x', b', y', hx', hy',
        rfl⟩ hsink
    rw [flattenAt_eq, List.map_append, List.nodup_append]
    refine ⟨?_, ?_, fun x hx y hy hxy => ?_⟩
    · refine nodup_flatMap_of_key hs.self.wellFormed.distinctNodes (fun e he => ?_)
        fun e he e' he' k hk k' hk' hsink => ?_
      · cases hb : e.body with
        | plugin type => simp [flattenBody]
        | subgraph id inner =>
          rw [flattenBody, ← routeText_concat]
          exact ih e he id inner hb (hs.body he id inner hb) _
      · obtain ⟨route, t, ht, l, hl, hjoins⟩ := hinside e he k hk
        obtain ⟨route', t', ht', l', hl', hjoins'⟩ := hinside e' he' k' hk'
        exact (List.cons.inj (hsame ht hl hjoins ht' hl' hjoins' hsink).1).1
    · have hlinks : s.links.Nodup := hs.self.ordered.imp fun {k l} h (heq : k = l) =>
        PadRef.ne_of_lt h (congrArg _ heq)
      rw [List.Nodup, List.pairwise_map, List.pairwise_filterMap]
      refine hlinks.imp_of_mem fun {l l'} hl hl' hne k hk k' hk' hsink => hne ?_
      have hk := (flatLink_eq_some hs hl).mp hk
      have hk' := (flatLink_eq_some hs hl').mp hk'
      rw [← List.append_nil outer] at hk hk'
      exact (hsame (.here s) hl hk (.here s) hl' hk' hsink).2
    · obtain ⟨k, hk, rfl⟩ := List.mem_map.mp hx
      obtain ⟨k', hk', rfl⟩ := List.mem_map.mp hy
      obtain ⟨e, he, hk⟩ := List.mem_flatMap.mp hk
      obtain ⟨l', hl', hk'⟩ := List.mem_filterMap.mp hk'
      obtain ⟨route, t, ht, l, hl, hjoins⟩ := hinside e he k hk
      have hk' := (flatLink_eq_some hs hl').mp hk'
      rw [← List.append_nil outer] at hk'
      cases (hsame ht hl hjoins (.here s) hl' hk' hxy).1

/-! ### Faithfulness -/

/-- The flat graph has what the pads of the graphs inside denote, as it is there. -/
theorem hasPad_flatten (ht : s.HoldsAt route t) {b : List String} {x : PadRef} {p : PadState}
    (hp : t.pad? r = some p) (h : t.Denotes r b x) :
    ∃ q, s.flatten.HasPad (flatRef (route ++ b) x) q ∧ q.isSource = p.isSource := by
  obtain ⟨p', hp', u, hu, e, he, type, hb, d, hd, rfl, htype⟩ := h.target (hs.within ht.encloses)
  obtain rfl : p' = p := Option.some.inj (hp'.symm.trans hp)
  have hmem : flatNode (route ++ b) e type ∈ s.flatten.nodes :=
    (mem_flattenAt_nodes []).mpr ⟨_, u, ht.trans hu, e, he, type, hb, rfl⟩
  exact ⟨d, ⟨_, hmem, rfl, hd, rfl⟩, congrArg PadType.isSource htype⟩

/-- The flat form of an exact graph is faithful (`FlattensTo`): nodes and links by induction on the
depth, sinks by `eq_of_sink_eq`. -/
theorem flattensTo_flatten : s.FlattensTo s.flatten := by
  have hlinks : ∀ k, k ∈ s.flatten.links ↔ _ := fun _ => mem_flattenAt_links [] hs
  refine ⟨fun _ => mem_flattenAt_nodes [], nodup_flattenAt_ids hs [],
    fun _ _ _ _ _ _ ht he ht' he' h => eq_of_flat_id hs ht he ht' he' h, hlinks,
    fun route t ht l hl => ?_, fun _ _ _ _ _ _ _ ht hl hk ht' hl' hk' =>
      eq_of_sink_eq hs ht hl hk ht' hl' hk' rfl, fun k hk => ?_, nodup_flattenAt_sinks hs []⟩
  · have hin := hs.within ht.encloses
    obtain ⟨k, hk⟩ := exists_joins hin hl route
    refine ⟨k, hk, fun k' hk' => ?_⟩
    have hsame := (flatLink_of_joins hin hk').symm.trans (flatLink_of_joins hin hk)
    exact Option.some.inj hsame
  · obtain ⟨route, t, ht, l, hl, a, x, b, y, hx, hy, rfl⟩ := (hlinks k).mp hk
    obtain ⟨p, q, hp, hq, hsource, hsink, -⟩ := (hs.within ht.encloses).self.wellFormed.linked l hl
    obtain ⟨p', hp', hps⟩ := hasPad_flatten hs ht hp hx
    obtain ⟨q', hq', hqs⟩ := hasPad_flatten hs ht hq hy
    exact ⟨p', q', hp', hps.trans hsource, hq', hqs.trans hsink⟩

end GraphState

/-- After any sequence of operations on a new graph, whatever the library and the settings, the
flat form of the graph is faithful (`GraphState.FlattensTo`): there is one flat node for every node
of a type and one flat link for every link, at any depth, with distinct ids, every flat link joins
a source to a sink, and no flat sink has two. -/
theorem Graph.flatten_faithful_run (library : Library) (config : EngineConfig)
    (ops : List Operation) :
    ((Graph.new library config).run ops).state.FlattensTo
      ((Graph.new library config).run ops).state.flatten :=
  GraphState.flattensTo_flatten (everywhere_exact_run library config ops)

end Patchbay
